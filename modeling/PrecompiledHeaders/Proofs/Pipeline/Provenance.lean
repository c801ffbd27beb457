import PrecompiledHeaders.Proofs.Pipeline.Drafts
import PrecompiledHeaders.Proofs.Queue.Standing
/-! Where everything goes back to. Step by step it is known of every job, of every artifact on record
and of whatever the workers have in their hands which draft it comes from, and which headers are lost
or recorded. -/
namespace PrecompiledHeaders

namespace Pipeline

variable {W : Type} [Workshop W] {o p : Pipeline W} {os : List (Occurrence W)} {o' : Occurrence W}
  {h h' : Holdings} {i : Nat} {s : Scope} {stage : Stage} {cl : Claimed}

/-- What holds of a pipeline whatever happened to it. -/
structure Regular (p : Pipeline W) : Prop where
  orderly : Orderly p
  sane : p.provider.Sane p.workspace.files
  held : (p.held.map (·.key)).Nodup
  claimed : ∀ s c q, p.queue.claim s = some (c, q) → c.key = c.task.key s
  ended : ∀ (i : Nat) (s : Scope) (c : Claimed) (outcome : Outcome),
    p.workers[i]? = some ⟨s, .ended c outcome⟩ → ∃ f q, p.queue.finish c.key = some (f, q)

theorem during_cons (p : Pipeline W) (o : Occurrence W) (os : List (Occurrence W)) :
    p.during (o :: os) = (p.occur o).during os := rfl

/-- How the provenance is carried on: what is new is accounted for, and whoever holds something held it
before or took it up. -/
theorem Provenance.carry (hp : Provenance o os h) (made : List Job)
    (hdir : (o.during (os ++ [o'])).pchDir = (o.during os).pchDir)
    (hshows : (o.during (os ++ [o'])).artifacts.Shows (o.during (os ++ [o'])).workspace.world h')
    (hjobs : Workshop.jobs (o.during (os ++ [o'])).workspace.world =
      Workshop.jobs (o.during os).workspace.world ++ made)
    (hmade : ∀ j ∈ made, ∃ print, j.Authored (o.seen drafts (os ++ [o'])) print)
    (hart : ∀ print path, h'.artifact print = some path → h.artifact print = some path ∨
      ∃ j ∈ made, j.outputPath = path ∧ j.Authored (o.seen drafts (os ++ [o'])) print)
    (hhands : ∀ i s stage cl, (o.during (os ++ [o'])).workers[i]? = some ⟨s, stage⟩ →
      stage.claimed? = some cl →
      ((o.during os).workers[i]? = some ⟨s, stage⟩ ∧ .finish cl.key ∉ (o.during os).moves o') ∨
      HeldSince o (os ++ [o']) (Workshop.jobs (o.during os).workspace.world ++ made) i s cl stage) :
    Provenance o (os ++ [o']) h' := by
  have hdrafts : o.seen drafts os ⊆ o.seen drafts (os ++ [o']) := by
    rw [seen_snoc]
    exact List.subset_append_left _ _
  refine ⟨hdir.trans hp.dir, hshows, fun j hj => ?_, fun print path hpath => ?_,
    fun i s stage cl hw hc => ?_⟩
  · rw [hjobs] at hj
    rcases List.mem_append.mp hj with hj | hj
    · obtain ⟨print, hauthored⟩ := hp.jobs j hj
      exact ⟨print, hauthored.mono hdrafts⟩
    · exact hmade j hj
  · rw [hjobs]
    rcases hart print path hpath with hold | ⟨j, hj, hout, hauthored⟩
    · obtain ⟨j, hj, hout, hauthored⟩ := hp.artifacts print path hold
      exact ⟨j, List.mem_append_left _ hj, hout, hauthored.mono hdrafts⟩
    · exact ⟨j, List.mem_append_right _ hj, hout, hauthored⟩
  · rw [hjobs]
    rcases hhands i s stage cl hw hc with ⟨hold, hend⟩ | hheld
    · exact (hp.hands i s stage cl hold hc).snoc hend fun _ _ hdrawn =>
        hdrawn.mono (fun _ => id) hdrafts (List.subset_append_left _ _)
    · exact hheld

/-! ### Steps of others -/

variable [LawfulWorkshop W]

omit [Workshop W] [LawfulWorkshop W] in
theorem endings_of_not_work (ho : ∀ i waits permitted, o' ≠ .step (.work i waits permitted)) :
    p.endings o' = [] := by
  cases o' with
  | step step =>
    cases step with
    | coordinate => rfl
    | work i waits permitted => exact absurd rfl (ho i waits permitted)
  | send | change | number | close => rfl

theorem Provenance.aside (hp : Provenance o os h) (hr : Regular (o.during os))
    (ht : Tended (o.during os) o') (ho : ∀ i waits permitted, o' ≠ .step (.work i waits permitted)) :
    ∃ h', Provenance o (os ++ [o']) h' ∧ Turns (o.during os) o' h h' := by
  obtain ⟨hworkers, hdir, _, hshows⟩ := hr.orderly.aside_occur hr.sane ht ho
  obtain ⟨hjobs, h', hshows', hart, hhead⟩ := hshows h hp.shows
  have hnone : ∀ k, .finish k ∉ (o.during os).moves o' := fun k hk => by
    obtain ⟨i, waits, permitted, _, _, _, rfl, _⟩ := finish_mem_moves hk
    exact ho i waits permitted rfl
  have hlog : Workshop.jobs (o.during os).workspace.world ⊆
      Workshop.jobs ((o.during os).occur o').workspace.world := fun j hj => hjobs.symm ▸ hj
  rw [← during_snoc] at hworkers hdir hjobs hshows'
  refine ⟨h', hp.carry [] hdir hshows' (by rw [hjobs, List.append_nil])
    (fun j hj => absurd hj List.not_mem_nil) (fun print path hpath => Or.inl (hart ▸ hpath))
    fun i s stage cl hw _ => Or.inl ⟨hworkers ▸ hw, hnone _⟩, fun x s hx _ => hhead x s hx, ?_, hlog⟩
  rw [endings_of_not_work ho]
  exact fun e he => absurd he List.not_mem_nil

/-! ### Steps of workers -/

theorem finish_shows (hs : p.artifacts.Shows p.workspace.world h) {c : Claimed} {f : Finished}
    {q : Queue} (hf : p.queue.finish c.key = some (f, q)) (i : Nat) (outcome : Outcome) :
    ∃ store w troubles, p.finish i c outcome = { p with
        queue := q, artifacts := store, workspace := { p.workspace with world := w }
        troubles := troubles }.setStage i (stageAfter f outcome) ∧
      store.Shows w (if f.retracted then h else h.assign f.members f.scope outcome.header?) ∧
      Workshop.jobs w = Workshop.jobs p.workspace.world := by
  obtain ⟨troubles, hnote⟩ := p.noteFailure_eq c.key outcome
  rw [finish, hnote]
  dsimp only
  rw [hf]
  cases hret : f.retracted with
  | true =>
    refine ⟨p.artifacts, p.workspace.world, troubles, ?_, hs, rfl⟩
    simp only [recordOutcome, hret, if_true]
  | false =>
    have hput := Build.put_record hs f.scope f.members outcome
    generalize hout : Build.record p.artifacts p.workspace.world f.scope f.members outcome = out at hput
    obtain ⟨result, store, w⟩ := out
    obtain ⟨hok, _, hshows, _, hquiet⟩ := hput
    dsimp only at hok hshows hquiet
    subst hok
    refine ⟨store, w, troubles, ?_, hshows, hquiet.2⟩
    simp only [recordOutcome, hret, hout, Bool.false_eq_true, if_false]

omit [LawfulWorkshop W] in
/-- One worker moves on, and all others hold what they held. -/
theorem hands_setStage {made : List Job} {s₀ : Scope} {old new : Stage}
    (hworkers : (o.during (os ++ [o'])).workers = ((o.during os).setStage i new).workers)
    (hw : (o.during os).workers[i]? = some ⟨s₀, old⟩)
    (hnew : ∀ cl, new.claimed? = some cl → HeldSince o (os ++ [o']) made i s₀ cl new)
    (hothers : ∀ j w d, i ≠ j → (o.during os).workers[j]? = some w → w.stage.claimed? = some d →
      .finish d.key ∉ (o.during os).moves o') (j : Nat) (s : Scope) (stage : Stage) (cl : Claimed)
    (hj : (o.during (os ++ [o'])).workers[j]? = some ⟨s, stage⟩) (hc : stage.claimed? = some cl) :
    ((o.during os).workers[j]? = some ⟨s, stage⟩ ∧ .finish cl.key ∉ (o.during os).moves o') ∨
      HeldSince o (os ++ [o']) made j s cl stage := by
  rw [hworkers] at hj
  by_cases hij : i = j
  · subst hij
    rw [getElem?_setStage hw] at hj
    obtain ⟨rfl, rfl⟩ := Worker.mk.inj (Option.some.inj hj)
    exact Or.inr (hnew cl hc)
  · rw [getElem?_setStage_of_ne _ hij] at hj
    exact Or.inl ⟨hj, hothers j _ cl hij hj hc⟩

variable {waits permitted : Bool}

omit [LawfulWorkshop W] in
theorem turns_refl (hnone : p.endings o' = [])
    (hlog : Workshop.jobs (p.occur o').workspace.world = Workshop.jobs p.workspace.world) :
    Turns p o' h h := by
  refine ⟨fun _ _ _ _ => rfl, ?_, fun j hj => hlog.symm ▸ hj⟩
  rw [hnone]
  exact fun e he => absurd he List.not_mem_nil

omit [LawfulWorkshop W] in
/-- Whoever takes up a task holds it from then on. -/
theorem Provenance.claims (hp : Provenance o os h) (hr : Regular (o.during os)) {scope : Scope}
    {c : Claimed} {queue : Queue} (hw : (o.during os).workers[i]? = some ⟨scope, .idle⟩)
    (hopen : (o.during os).closing = false)
    (hclaim : (o.during os).queue.claim scope = some (c, queue))
    (hq : (o.during os).occur (.step (.work i waits permitted)) =
      { o.during os with queue := queue }.setStage i (.claimed c)) :
    Provenance o (os ++ [.step (.work i waits permitted)]) h := by
  have hclaims : (o.during os).Claims i scope c := ⟨hw, hopen, queue, hclaim⟩
  have hnone : ∀ k, .finish k ∉ (o.during os).moves (.step (.work i waits permitted)) := fun k hk => by
    rw [hclaims.moves] at hk
    exact Move.noConfusion (List.mem_singleton.mp hk)
  have hafter := (during_snoc o os (.step (.work i waits permitted))).trans hq
  refine hp.carry [] (by rw [hafter]; rfl) (by rw [hafter]; exact hp.shows)
    (by rw [hafter, List.append_nil]; rfl) (fun j hj => absurd hj List.not_mem_nil)
    (fun print path => Or.inl)
    (hands_setStage (by rw [hafter]; rfl) hw (fun cl hcl => ?_) fun _ _ d _ _ _ => hnone d.key)
  obtain rfl := Option.some.inj hcl
  refine ⟨os, waits, permitted, [], rfl, ⟨hclaims, hr.claimed _ _ _ hclaim, ?_⟩, .fresh⟩
  rw [seen, seen, List.append_nil]
  exact hnone _

omit [LawfulWorkshop W] in
/-- A worker comes a step further with its task, and nobody is told. -/
theorem Provenance.goesOn (hp : Provenance o os h) {scope : Scope} {c : Claimed} {old new : Stage}
    (hw : (o.during os).workers[i]? = some ⟨scope, old⟩) (hold : old.claimed? = some c)
    (hnew : new.claimed? = some c)
    (hmoves : (o.during os).moves (.step (.work i waits permitted)) = [])
    (hq : (o.during os).occur (.step (.work i waits permitted)) = (o.during os).setStage i new)
    (hdrawn : ∀ looked : Option FilePath → Prop,
      (∀ base, (o.during os).Looks i scope c base → looked base) →
      Drawn looked o.pchDir c (o.seen drafts os) (Workshop.jobs (o.during os).workspace.world) old →
      Drawn looked o.pchDir c (o.seen drafts (os ++ [.step (.work i waits permitted)]))
        (Workshop.jobs (o.during os).workspace.world) new) :
    Provenance o (os ++ [.step (.work i waits permitted)]) h := by
  have hnone : ∀ k, .finish k ∉ (o.during os).moves (.step (.work i waits permitted)) := fun k hk => by
    rw [hmoves] at hk
    exact absurd hk List.not_mem_nil
  have hafter := (during_snoc o os (.step (.work i waits permitted))).trans hq
  refine hp.carry [] (by rw [hafter]; rfl) (by rw [hafter]; exact hp.shows)
    (by rw [hafter, List.append_nil]; rfl) (fun j hj => absurd hj List.not_mem_nil)
    (fun print path => Or.inl)
    (hands_setStage (by rw [hafter]) hw (fun cl hcl => ?_) fun _ _ d _ _ _ => hnone d.key)
  obtain rfl := Option.some.inj (hnew.symm.trans hcl)
  rw [List.append_nil]
  exact (hp.hands i scope old c hw hold).snoc (hnone _) fun looked hlooked =>
    hdrawn looked fun base hlooks => hlooked base waits permitted hlooks rfl

omit [LawfulWorkshop W] in
/-- The header to build upon is the one that is found now. -/
theorem Provenance.looks (hp : Provenance o os h) {scope : Scope} {c : Claimed}
    (hw : (o.during os).workers[i]? = some ⟨scope, .claimed c⟩)
    (hq : (o.during os).occur (.step (.work i waits permitted)) = (o.during os).setStage i (.footed c
      (Build.footing (o.during os).artifacts (o.during os).workspace.world c.scope c.task))) :
    Provenance o (os ++ [.step (.work i waits permitted)]) h := by
  refine hp.goesOn hw rfl (Stage.claimed?_footed _ _) (by simp only [moves, hw]) hq
    fun looked hlooked _ => ?_
  obtain ⟨base, hfooting, hbase⟩ | ⟨outcome, hfooting, hbare⟩ :=
    @Build.of_footing _ _ (o.during os).artifacts (o.during os).workspace.world c.scope c.task _ rfl
  · rw [hfooting]
    exact .based (hlooked base ⟨hw, hbase⟩)
  · rw [hfooting]
    exact .void hbare

omit [LawfulWorkshop W] in
/-- Whoever plans the build of a task draws up its artifact. -/
theorem Provenance.plans (hp : Provenance o os h) {scope : Scope} {c : Claimed}
    {base : Option FilePath} {waits' : Bool}
    (hw : (o.during os).workers[i]? = some ⟨scope, .based c base⟩)
    (hq : (o.during os).occur (.step (.work i waits permitted)) = (o.during os).setStage i (.planned c
      waits' (Build.plan (o.during os).pchDir (o.during os).artifacts (o.during os).workspace c.key
        c.scope c.task base))) :
    Provenance o (os ++ [.step (.work i waits permitted)]) h := by
  have hdrafts : o.seen drafts (os ++ [.step (.work i waits permitted)]) =
      o.seen drafts os ++ Build.drafts (o.during os).workspace c.scope c.task base := by
    rw [seen_snoc]
    simp only [drafts, hw]
  have hsub : Build.drafts (o.during os).workspace c.scope c.task base ⊆
      o.seen drafts (os ++ [.step (.work i waits permitted)]) := by
    rw [hdrafts]
    exact List.subset_append_right _ _
  refine hp.goesOn hw rfl (Stage.claimed?_planned _ _ _) (by simp only [moves, hw]) hq
    fun looked _ hdrawn => ?_
  cases hdrawn with
  | based upon =>
    have hplanned := Build.planned (o.during os).pchDir (o.during os).artifacts
      (o.during os).workspace c.key c.scope c.task base
    rw [hp.dir] at hplanned ⊢
    generalize Build.plan o.pchDir (o.during os).artifacts (o.during os).workspace c.key c.scope c.task
      base = plan at hplanned
    cases hplanned with
    | void bare => exact .void bare
    | compile drafted => exact .job upon (hsub drafted)
    | reuse drafted found =>
      rw [hp.shows.artifact?] at found
      obtain ⟨j, hj, rfl, hauthored⟩ := hp.artifacts _ _ (Except.ok.inj found)
      refine .built upon (hsub drafted) hj (hauthored.mono ?_)
      rw [hdrafts]
      exact List.subset_append_left _ _

/-- The compiler does a job that was drawn up, and its output goes on record. -/
theorem Provenance.compiles (hp : Provenance o os h) {scope : Scope} {c : Claimed} {job : Job}
    {print : String} {waits' : Bool}
    (hw : (o.during os).workers[i]? = some ⟨scope, .compiling c job print waits'⟩)
    (hq : (o.during os).occur (.step (.work i waits permitted)) =
      (o.during os).compile i c job print) :
    ∃ h', Provenance o (os ++ [.step (.work i waits permitted)]) h' ∧ h'.header = h.header ∧
      Workshop.jobs (o.during os).workspace.world ⊆
        Workshop.jobs ((o.during os).occur (.step (.work i waits permitted))).workspace.world := by
  have hmoves : (o.during os).moves (.step (.work i waits permitted)) = [] := by
    simp only [moves, hw]
  have hnone : ∀ k, .finish k ∉ (o.during os).moves (.step (.work i waits permitted)) := fun k hk => by
    rw [hmoves] at hk
    exact absurd hk List.not_mem_nil
  have hheld := hp.hands i scope _ c hw rfl
  obtain ⟨pre, _, _, mid, hos, hsince, hdrawn⟩ := id hheld
  cases hdrawn with
  | @job base bytes includes _ upon drafted =>
    have hkey : '/' ∉ c.key.hex.toList := by
      rw [hsince.key]
      exact Build.slash_not_mem_key _ _
    obtain ⟨job, hjob⟩ : ∃ job, Build.jobFor o.pchDir c.key c.scope c.task includes
      (digest bytes) base = job := ⟨_, rfl⟩
    have hhead : job.headerPath.Ends (Build.headerName c.scope c.key) :=
      hjob ▸ Build.ends_headerPath hkey
    have hout : job.outputPath.Ends (Build.outputName c.scope c.key (digest bytes)) :=
      hjob ▸ Build.ends_outputPath hkey (slash_not_mem_digest _)
    have hbase : job.base = base := by rw [← hjob]; rfl
    rw [hjob] at hw hq hheld
    have hauthored : job.Authored (o.seen drafts os) (digest bytes) :=
      ⟨hbase ▸ drafted, length_digest _, c.scope, c.key, hout⟩
    have hdrafts : o.seen drafts os ⊆ o.seen drafts (os ++ [.step (.work i waits permitted)]) := by
      rw [seen_snoc]
      exact List.subset_append_left _ _
    obtain ⟨houtcome, _, hshows, _, hlog, _⟩ :=
      Build.compile_spec hp.shows (digest bytes) (Job.beside ⟨hhead, hout⟩ _)
    have hafter := (during_snoc o os (.step (.work i waits permitted))).trans hq
    rw [Pipeline.compile] at hafter
    generalize Build.compile (o.during os).artifacts (o.during os).workspace.world job
      (digest bytes) = out at houtcome hshows hlog hafter
    obtain ⟨outcome, store, v⟩ := out
    dsimp only at houtcome hshows hlog hafter
    subst houtcome
    refine ⟨_, hp.carry [job] (by rw [hafter]; rfl) (by rw [hafter]; exact hshows)
      (by rw [hafter]; exact hlog) (fun j hj => ?_) (fun k path hpath => ?_)
      (hands_setStage (by rw [hafter]; rfl) hw (fun cl hcl => ?_) fun _ _ d _ _ _ => hnone d.key),
      Build.header_entered _ _ _, ?_⟩
    · rw [List.mem_singleton.mp hj]
      exact ⟨_, hauthored.mono hdrafts⟩
    · rw [Build.artifact_entered] at hpath
      split at hpath
      · rename_i hnew
        obtain ⟨rfl, -⟩ := hnew
        exact Or.inr ⟨job, List.mem_singleton_self _, Option.some.inj hpath,
          hauthored.mono hdrafts⟩
      · exact Or.inl hpath
    · obtain rfl := Option.some.inj hcl
      refine hheld.snoc (hnone _) fun looked _ hdrawn => ?_
      rw [Workshop.verdict]
      cases Workshop.refusal (o.during os).workspace.world job with
      | some f => exact .void rfl
      | none =>
        exact hdrawn.finished hdrafts (List.mem_append_right _ (List.mem_singleton_self _))
          (hauthored.mono hdrafts)
    · rw [← during_snoc, hafter]
      exact hlog.symm ▸ List.subset_append_left _ _

/-- A build that ends gives its header to the parts that it speaks for. -/
theorem Provenance.ends (hp : Provenance o os h) (hr : Regular (o.during os)) {scope : Scope}
    {c : Claimed} {outcome : Outcome} (hw : (o.during os).workers[i]? = some ⟨scope, .ended c outcome⟩)
    (hq : (o.during os).occur (.step (.work i waits permitted)) = (o.during os).finish i c outcome) :
    ∃ h', Provenance o (os ++ [.step (.work i waits permitted)]) h' ∧
      Turns (o.during os) (.step (.work i waits permitted)) h h' := by
  obtain ⟨f, q, hf⟩ := hr.ended i scope c outcome hw
  obtain ⟨store, w, troubles, hfinish, hshows, hlog⟩ := finish_shows hp.shows hf i outcome
  have hafter := ((during_snoc o os (.step (.work i waits permitted))).trans hq).trans hfinish
  have hmoves : (o.during os).moves (.step (.work i waits permitted)) = [.finish c.key] := by
    simp only [moves, hw]
  have hendings : (o.during os).endings (.step (.work i waits permitted)) = [⟨f, outcome⟩] := by
    simp only [endings, hw, hf]
    rfl
  refine ⟨_, hp.carry [] (by rw [hafter]; rfl) (by rw [hafter]; exact hshows)
    (by rw [hafter, List.append_nil]; exact hlog) (fun j hj => absurd hj List.not_mem_nil)
    (fun print path hpath => Or.inl ?_)
    (hands_setStage (by rw [hafter]; rfl) hw (fun cl hcl => ?_) fun j w' d hij hj hd hk => ?_),
    fun x s _ hx => ?_, fun e he hret x hx => ?_, ?_⟩
  · split at hpath <;> exact hpath
  · rw [stageAfter] at hcl
    split at hcl
    · cases hcl
    · cases hs : f.scope <;> rw [hs] at hcl <;> cases hcl
  · rw [hmoves] at hk
    exact key_ne_of_held hr.held hw hj hij rfl hd (Move.finish.inj (List.mem_singleton.mp hk)).symm
  · rw [hendings] at hx
    split
    · rfl
    · rename_i hret
      refine Holdings.header_assign_of_not _ (fun hmem hs => ?_) _
      exact hx ⟨f, outcome⟩ (List.mem_singleton_self _) (Bool.eq_false_iff.mpr hret) hs.symm hmem
  · rw [hendings] at he
    obtain rfl := List.mem_singleton.mp he
    rw [if_neg (by rw [hret]; exact Bool.false_ne_true)]
    exact Holdings.header_assign_of_mem _ hx _ _
  · rw [← during_snoc, hafter]
    exact fun j hj => hlog.symm ▸ hj

omit [LawfulWorkshop W] in
/-- A worker that passes on what ended holds nothing. -/
theorem Provenance.passes (hp : Provenance o os h) {old new : Stage}
    (hw : (o.during os).workers[i]? = some ⟨s, old⟩) (hnew : new.claimed? = none)
    (hmoves : (o.during os).moves (.step (.work i waits permitted)) = [])
    {inbox : List Event} {notices : List Notice}
    (hq : (o.during os).occur (.step (.work i waits permitted)) =
      { o.during os with inbox := inbox, notices := notices }.setStage i new) :
    Provenance o (os ++ [.step (.work i waits permitted)]) h := by
  have hafter := (during_snoc o os (.step (.work i waits permitted))).trans hq
  refine hp.carry [] (by rw [hafter]; rfl) (by rw [hafter]; exact hp.shows)
    (by rw [hafter, List.append_nil]; rfl) (fun j hj => absurd hj List.not_mem_nil)
    (fun print path => Or.inl)
    (hands_setStage (by rw [hafter]; rfl) hw (fun cl hcl => ?_) fun _ _ d _ _ _ hk => ?_)
  · rw [hnew] at hcl
    cases hcl
  · rw [hmoves] at hk
    exact absurd hk List.not_mem_nil

omit [LawfulWorkshop W] in
/-- A worker that does not get on changes nothing. -/
theorem Provenance.rests (hp : Provenance o os h)
    (hwork : (o.during os).work i waits permitted = none) :
    Provenance o (os ++ [.step (.work i waits permitted)]) h := by
  have hq : (o.during os).occur (.step (.work i waits permitted)) = o.during os := by
    rw [Pipeline.occur, step, hwork]
    rfl
  have hafter := (during_snoc o os (.step (.work i waits permitted))).trans hq
  refine hp.carry [] (by rw [hafter]) (by rw [hafter]; exact hp.shows)
    (by rw [hafter, List.append_nil]) (fun j hj => absurd hj List.not_mem_nil)
    (fun print path => Or.inl) fun j s stage cl hj hc => Or.inl ⟨hafter ▸ hj, fun hk => ?_⟩
  obtain ⟨i', waits', permitted', _, _, _, heq, hended, _⟩ := finish_mem_moves hk
  obtain ⟨rfl, _⟩ := Step.work.inj (Occurrence.step.inj heq)
  simp only [work, hended, reduceCtorEq] at hwork

/-- One step of a worker. -/
theorem Provenance.works (hp : Provenance o os h) (hr : Regular (o.during os)) (i : Nat)
    (waits permitted : Bool) : ∃ h', Provenance o (os ++ [.step (.work i waits permitted)]) h' ∧
      Turns (o.during os) (.step (.work i waits permitted)) h h' := by
  cases hwork : (o.during os).work i waits permitted with
  | none =>
    refine ⟨h, hp.rests hwork, turns_refl (endings_of_work_eq_none hwork) ?_⟩
    rw [Pipeline.occur, step, hwork]
    rfl
  | some q =>
    have hq : (o.during os).occur (.step (.work i waits permitted)) = q := by
      rw [Pipeline.occur, step, hwork]
      rfl
    cases works_of_work hwork with
    | claim worker opened claim =>
      exact ⟨h, hp.claims hr worker opened claim hq,
        turns_refl (by rw [endings, worker]) (by rw [hq]; rfl)⟩
    | look worker =>
      exact ⟨h, hp.looks worker hq, turns_refl (by rw [endings, worker]) (by rw [hq]; rfl)⟩
    | plan worker =>
      exact ⟨h, hp.plans worker hq, turns_refl (by rw [endings, worker]) (by rw [hq]; rfl)⟩
    | compile worker =>
      obtain ⟨h', hp', hhead, hlog⟩ := hp.compiles worker hq
      refine ⟨h', hp', fun x s _ _ => by rw [hhead], ?_, hlog⟩
      rw [endings, worker]
      exact fun e he => absurd he List.not_mem_nil
    | finish worker => exact hp.ends hr worker hq
    | notify worker =>
      exact ⟨h, hp.passes worker rfl (by simp only [moves, worker]) hq,
        turns_refl (by rw [endings, worker]) (by rw [hq]; rfl)⟩
    | @report _ s' notice worker =>
      have hsend : ((o.during os).send (.taskFinished s' notice)).2 = { o.during os with
          inbox := ((o.during os).send (.taskFinished s' notice)).2.inbox } := by
        rw [Pipeline.send]
        split <;> rfl
      rw [hsend] at hq
      exact ⟨h, hp.passes worker rfl (by simp only [moves, worker]) hq,
        turns_refl (by rw [endings, worker]) (by rw [hq]; rfl)⟩

/-- Whatever happens, everything goes back to a draft. -/
theorem Provenance.occur (hp : Provenance o os h) (hr : Regular (o.during os))
    (ht : Tended (o.during os) o') : ∃ h', Provenance o (os ++ [o']) h' ∧
      Turns (o.during os) o' h h' := by
  by_cases ho : ∃ i waits permitted, o' = .step (.work i waits permitted)
  · obtain ⟨i, waits, permitted, rfl⟩ := ho
    exact hp.works hr i waits permitted
  · exact hp.aside hr ht fun i waits permitted he => ho ⟨i, waits, permitted, he⟩

end Pipeline
end PrecompiledHeaders
