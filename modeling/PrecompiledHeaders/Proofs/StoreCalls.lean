import PrecompiledHeaders.Proofs.Holdings
/-! Calls of artifact stores. A store that keeps its index in a document and one that keeps it in
memory answer every call alike, whenever the former is opened anew, and both answer as a map of
artifacts and a map of headers would. No part is kept on record without a header. -/
namespace PrecompiledHeaders

/-! ### Calls -/

inductive ArtifactCall where
  | artifact (print : String)
  | insertArtifact (print : String) (path : FilePath)
  | header (part : PartId) (scope : Scope)
  | insertHeader (parts : List PartId) (scope : Scope) (path : FilePath)
  | deleteHeader (parts : List PartId) (scope : Scope)
  deriving DecidableEq

namespace ArtifactCall

/-- The artifact that a call may change. -/
def WritesArtifact (c : ArtifactCall) (print : String) : Prop :=
  ∃ path, c = .insertArtifact print path

/-- The headers that a call may change. -/
def WritesHeader (c : ArtifactCall) (part : PartId) (scope : Scope) : Prop :=
  ∃ parts, part ∈ parts ∧
    ((∃ path, c = .insertHeader parts scope path) ∨ c = .deleteHeader parts scope)

end ArtifactCall

namespace Holdings

def answer (h : Holdings) : ArtifactCall → Option FilePath
  | .artifact print => h.artifact print
  | .header part scope => h.header part scope
  | .insertArtifact _ _ | .insertHeader _ _ _ | .deleteHeader _ _ => none

def next (h : Holdings) : ArtifactCall → Holdings
  | .insertArtifact print path => h.setArtifact print path
  | .insertHeader parts scope path => h.assign parts scope (some path)
  | .deleteHeader parts scope => h.assign parts scope none
  | .artifact _ | .header _ _ => h

theorem artifact_next {h : Holdings} {c : ArtifactCall} {print : String}
    (hc : ¬ c.WritesArtifact print) : (h.next c).artifact print = h.artifact print := by
  cases c with
  | insertArtifact print' path =>
    have hne : print ≠ print' := fun he => hc ⟨path, he ▸ rfl⟩
    exact Function.update_of_ne hne _ _
  | artifact | header | insertHeader | deleteHeader => rfl

theorem header_next {h : Holdings} {c : ArtifactCall} {part : PartId} {scope : Scope}
    (hc : ¬ c.WritesHeader part scope) : (h.next c).header part scope = h.header part scope := by
  cases c with
  | insertHeader parts scope' path =>
    refine header_assign_of_not h (fun hp hs => hc ⟨parts, hp, .inl ⟨path, ?_⟩⟩) _
    rw [hs]
  | deleteHeader parts scope' =>
    refine header_assign_of_not h (fun hp hs => hc ⟨parts, hp, .inr ?_⟩) _
    rw [hs]
  | artifact | insertArtifact | header => rfl

end Holdings

/-! ### Indexes -/

namespace ArtifactIndex

variable {x y z : ArtifactIndex} {scope : Scope} {part : PartId} {parts : List PartId}

/-- Both have the same entries. -/
structure Alike (x y : ArtifactIndex) : Prop where
  artifacts : ∀ k : String, y.artifacts[k]? = x.artifacts[k]?
  headers : ∀ p : PartId, y.headers[p]? = x.headers[p]?

theorem Alike.refl (x : ArtifactIndex) : x.Alike x := ⟨fun _ => rfl, fun _ => rfl⟩

theorem Alike.symm (h : x.Alike y) : y.Alike x :=
  ⟨fun a => (h.artifacts a).symm, fun p => (h.headers p).symm⟩

theorem Alike.trans (h : x.Alike y) (k : y.Alike z) : x.Alike z :=
  ⟨fun a => (k.artifacts a).trans (h.artifacts a), fun p => (k.headers p).trans (h.headers p)⟩

theorem Alike.holdings (h : x.Alike y) : y.holdings = x.holdings :=
  holdings_eq h.artifacts h.headers

/-- A part on record has a header. -/
def Tidy (x : ArtifactIndex) : Prop :=
  ∀ (p : PartId) (hs : PartHeaders), x.headers[p]? = some hs → hs.isEmpty = false

theorem Alike.tidy (h : x.Alike y) (hx : x.Tidy) : y.Tidy := fun p hs hp =>
  hx p hs ((h.headers p).symm.trans hp)

/-- The index after a call, whatever it had. -/
def next (x : ArtifactIndex) : ArtifactCall → ArtifactIndex
  | .insertArtifact print path => x.insertArtifact print path
  | .insertHeader parts scope path => x.setHeaders parts scope path
  | .deleteHeader parts scope => x.deleteHeaders parts scope
  | .artifact _ | .header _ _ => x

theorem holdings_next (x : ArtifactIndex) (c : ArtifactCall) :
    (x.next c).holdings = x.holdings.next c := by
  cases c with
  | insertArtifact print path => exact x.holdings_insertArtifact print path
  | insertHeader parts scope path => exact x.holdings_setHeaders parts scope path
  | deleteHeader parts scope => exact x.holdings_deleteHeaders parts scope
  | artifact | header => rfl

/-! What a change of one part leaves on record, entry by entry. -/

theorem getElem?_headers_setHeader (x : ArtifactIndex) (scope : Scope) (path : FilePath)
    (part p : PartId) : (x.setHeader scope path part).headers[p]? =
      if part = p then some ((x.headers[part]?.getD .none).set scope (some path))
      else x.headers[p]? := by
  rw [setHeader, Std.TreeMap.getElem?_insert]
  by_cases hp : part = p
  · rw [if_pos hp, if_pos (hp ▸ Std.ReflCmp.compare_self)]
  · rw [if_neg hp, if_neg fun he => hp (Std.LawfulEqCmp.eq_of_compare he)]

theorem getElem?_headers_deleteHeader (x : ArtifactIndex) (scope : Scope) (part p : PartId) :
    (x.deleteHeader scope part).headers[p]? =
      if part = p then
        x.headers[part]?.bind fun current =>
          if PartHeaders.isEmpty (current.set scope none) then none
          else some (current.set scope none)
      else x.headers[p]? := by
  rw [deleteHeader]
  by_cases hp : part = p
  · subst hp
    rw [if_pos rfl]
    cases hc : x.headers[part]? with
    | none => exact hc
    | some current =>
      dsimp only [Option.bind_some]
      split
      · rw [Std.TreeMap.getElem?_erase, if_pos Std.ReflCmp.compare_self]
      · rw [Std.TreeMap.getElem?_insert, if_pos Std.ReflCmp.compare_self]
  · have hne : compare part p ≠ .eq := fun he => hp (Std.LawfulEqCmp.eq_of_compare he)
    rw [if_neg hp]
    split
    · rfl
    · dsimp only
      split
      · rw [Std.TreeMap.getElem?_erase, if_neg hne]
      · rw [Std.TreeMap.getElem?_insert, if_neg hne]

theorem Alike.setHeader (h : x.Alike y) (scope : Scope) (path : FilePath) (part : PartId) :
    (x.setHeader scope path part).Alike (y.setHeader scope path part) :=
  ⟨h.artifacts, fun p => by
    rw [getElem?_headers_setHeader, getElem?_headers_setHeader, h.headers, h.headers]⟩

theorem Alike.deleteHeader (h : x.Alike y) (scope : Scope) (part : PartId) :
    (x.deleteHeader scope part).Alike (y.deleteHeader scope part) := by
  refine ⟨fun k => ?_, fun p => ?_⟩
  · rw [artifacts_deleteHeader, artifacts_deleteHeader]
    exact h.artifacts k
  · rw [getElem?_headers_deleteHeader, getElem?_headers_deleteHeader, h.headers, h.headers]

/-- Indexes with the same entries have them after every call. -/
theorem Alike.next (h : x.Alike y) (c : ArtifactCall) : (x.next c).Alike (y.next c) := by
  cases c with
  | insertArtifact print path =>
    refine ⟨fun k => ?_, h.headers⟩
    show (y.artifacts.insert print path)[k]? = (x.artifacts.insert print path)[k]?
    rw [Std.TreeMap.getElem?_insert, Std.TreeMap.getElem?_insert, h.artifacts]
  | insertHeader parts scope path => 
    exact List.foldl_rel h fun p _ _ _ hxy => hxy.setHeader scope path p
  | deleteHeader parts scope => exact List.foldl_rel h fun p _ _ _ hxy => hxy.deleteHeader scope p
  | artifact | header => exact h

theorem Tidy.setHeader (h : x.Tidy) (scope : Scope) (path : FilePath) (part : PartId) :
    (x.setHeader scope path part).Tidy := by
  intro p hs hp
  rw [getElem?_headers_setHeader] at hp
  split at hp
  · obtain rfl := Option.some.inj hp
    cases scope
    · rfl
    · exact Bool.and_false _
  · exact h p hs hp

theorem Tidy.deleteHeader (h : x.Tidy) (scope : Scope) (part : PartId) :
    (x.deleteHeader scope part).Tidy := by
  intro p hs hp
  rw [getElem?_headers_deleteHeader] at hp
  split at hp
  · obtain ⟨current, _, hleft⟩ := Option.bind_eq_some_iff.mp hp
    split at hleft
    · cases hleft
    · rename_i hne
      obtain rfl := Option.some.inj hleft
      exact Bool.eq_false_iff.mpr hne
  · exact h p hs hp

/-- No call leaves a part on record without a header. -/
theorem Tidy.next (h : x.Tidy) (c : ArtifactCall) : (x.next c).Tidy := by
  cases c with
  | insertHeader parts scope path =>
    exact List.foldlRecOn parts _ h fun _ hx p _ => Tidy.setHeader hx scope path p
  | deleteHeader parts scope =>
    exact List.foldlRecOn parts _ h fun _ hx p _ => Tidy.deleteHeader hx scope p
  | artifact | insertArtifact | header => exact h

/-- Deleting a header that is not there changes nothing. -/
theorem Tidy.alike_deleteHeader (h : x.Tidy) (hp : x.header? part scope = none) :
    x.Alike (x.deleteHeader scope part) := by
  refine ⟨fun k => by rw [artifacts_deleteHeader], fun p => ?_⟩
  rw [getElem?_headers_deleteHeader]
  split
  · rename_i he
    subst he
    cases hc : x.headers[part]? with
    | none => rfl
    | some current =>
      have hget : current.get scope = none := by
        rw [header?, hc] at hp
        exact hp
      have hleft : current.set scope none = current := by
        rw [← hget]
        cases scope <;> rfl
      rw [Option.bind_some, hleft, if_neg (by rw [h part current hc]; exact Bool.false_ne_true)]
  · rfl

/-- So it makes no difference that a document is written only when one of the parts has a header to
lose, while an index in memory changes with every call. -/
theorem Tidy.alike_deleteHeaders (h : x.Tidy) (hp : x.hasHeader parts scope = false) :
    x.Alike (x.deleteHeaders parts scope) := by
  induction parts generalizing x with
  | nil => exact Alike.refl x
  | cons part parts ih =>
    rw [hasHeader, List.any_cons, Bool.or_eq_false_iff] at hp
    have hfirst := h.alike_deleteHeader (by simpa using hp.1)
    refine hfirst.trans (ih (hfirst.tidy h) ?_)
    rw [← hp.2, hasHeader]
    exact congrArg parts.any (funext fun p => by rw [header?, header?, hfirst.headers])

end ArtifactIndex

/-! ### Both stores -/

namespace ArtifactStore

variable {W : Type}

section

variable [World W]

/-- What a call answers and what it leaves. A change that went through answers with nothing. -/
def perform (s : ArtifactStore) (w : W) :
    ArtifactCall → Except Fault (Option FilePath) × ArtifactStore × W
  | .artifact print => (s.artifact? w print, s, w)
  | .header part scope => (s.header? w part scope, s, w)
  | .insertArtifact print path => (s.insertArtifact w print path).map (·.map fun _ => none) id
  | .insertHeader parts scope path =>
    (s.insertHeader w parts scope path).map (·.map fun _ => none) id
  | .deleteHeader parts scope => (s.deleteHeader w parts scope).map (·.map fun _ => none) id

/-- The store can be read, and has the entries of `x`. -/
def Reads (s : ArtifactStore) (w : W) (x : ArtifactIndex) : Prop :=
  ∃ y, s.index w = .ok y ∧ x.Alike y

theorem Reads.congr {s : ArtifactStore} {w v : W} {x : ArtifactIndex} (h : s.Reads w x)
    (hv : ∀ p ∈ s.documents, World.hasFile v p = World.hasFile w p ∧
      World.readText v p = World.readText w p) : s.Reads v x := by
  obtain ⟨y, hy, hxy⟩ := h
  refine ⟨y, ?_, hxy⟩
  rw [← hy]
  cases s with
  | memory z => rfl
  | file root =>
    obtain ⟨hhas, htext⟩ := hv _ List.mem_cons_self
    rw [index, index, Document.load, Document.load, hhas, htext]

end

variable [Workshop W] [LawfulWorkshop W] {s : ArtifactStore} {w : W} {x : ArtifactIndex}

theorem documents_reopened (s : ArtifactStore) : s.reopened.documents = s.documents := by
  cases s <;> rfl

theorem reads_replace (s : ArtifactStore) (w : W) (x : ArtifactIndex) :
    (s.replace w x).2.1.Reads (s.replace w x).2.2 x := by
  cases s with
  | memory y => exact ⟨x, rfl, ArtifactIndex.Alike.refl x⟩
  | file root =>
    obtain ⟨y, hy, ha, hh⟩ := x.ofJson?_toJson
    rw [replace, Document.save_result]
    refine ⟨y, ?_, ha, hh⟩
    rw [index, Document.load_saved x.plain_toJson hy rfl]
    rfl

/-- A call was answered, and left the same store with the entries of `x`. -/
structure Serves (s : ArtifactStore) (w : W)
    (out : Except Fault (Option FilePath) × ArtifactStore × W) (answer : Option FilePath)
    (x : ArtifactIndex) : Prop where
  answer : out.1 = .ok answer
  reads : out.2.1.Reads out.2.2 x
  reopened : out.2.1.reopened = s.reopened
  spares : Spares s.documents w out.2.2

theorem serves_replace {y : ArtifactIndex} (s : ArtifactStore) (w : W) (h : x.Alike y) :
    s.Serves w ((s.replace w y).map (·.map fun _ => none) id) none x := by
  have hput := s.put_replace w y
  obtain ⟨z, hz, hyz⟩ := s.reads_replace w y
  refine ⟨?_, ⟨z, hz, h.trans hyz⟩, ?_, hput.spares⟩
  · show (s.replace w y).1.map _ = _
    rw [hput.result]
    rfl
  · cases s with
    | memory _ => rfl
    | file root =>
      show ((ArtifactStore.file root).replace w y).2.1.reopened = _
      rw [replace, Document.save_result]

/-- Every store with the entries of `x` answers as the maps in `x` do, and has the entries of the
next index afterwards. -/
theorem Reads.perform (h : s.Reads w x) (hx : x.Tidy) (c : ArtifactCall) :
    s.Serves w (s.perform w c) (x.holdings.answer c) (x.next c) := by
  obtain ⟨y, hy, hxy⟩ := h
  have hholdings : x.holdings = y.holdings := hxy.holdings.symm
  cases c with
  | artifact print =>
    refine ⟨?_, ⟨y, hy, hxy⟩, rfl, Spares.refl _ _⟩
    rw [ArtifactStore.perform, hholdings]
    exact Shows.artifact? ⟨y, hy, rfl⟩ print
  | header part scope =>
    refine ⟨?_, ⟨y, hy, hxy⟩, rfl, Spares.refl _ _⟩
    rw [ArtifactStore.perform, hholdings]
    exact Shows.header? ⟨y, hy, rfl⟩ part scope
  | insertArtifact print path =>
    rw [ArtifactStore.perform, ArtifactStore.insertArtifact, hy]
    exact s.serves_replace w (hxy.next (.insertArtifact print path))
  | insertHeader parts scope path =>
    rw [ArtifactStore.perform, ArtifactStore.insertHeader, hy]
    exact s.serves_replace w (hxy.next (.insertHeader parts scope path))
  | deleteHeader parts scope =>
    have hnext := hxy.next (.deleteHeader parts scope)
    rw [ArtifactStore.perform]
    obtain hput | ⟨hnone, hkept⟩ := s.deleteHeader_cases hy parts scope
    · rw [hput]
      exact s.serves_replace w hnext
    · have hsame := (hxy.tidy hx).alike_deleteHeaders hnone
      rw [hkept]
      exact ⟨rfl, ⟨y, hy, hnext.trans hsame.symm⟩, rfl, Spares.refl _ _⟩

end ArtifactStore

/-- A store in a document and a store in memory, side by side. -/
structure Stores (W : Type) where
  file : ArtifactStore
  memory : ArtifactStore
  world : W

inductive StoreEvent (W : Type) where
  | call (c : ArtifactCall)
  /-- The store in the document is dropped and made anew. -/
  | reopen
  /-- Something else changes the world. -/
  | meanwhile (change : W → W)

/-- Nothing but calls writes to the document. -/
def StoreEvent.Undisturbed {W : Type} [World W] (root : FilePath) : StoreEvent W → Prop
  | .call _ | .reopen => True
  | .meanwhile change => ∀ w, World.hasFile (change w) (ArtifactStore.documentPath root) =
      World.hasFile w (ArtifactStore.documentPath root) ∧
    World.readText (change w) (ArtifactStore.documentPath root) =
      World.readText w (ArtifactStore.documentPath root)

namespace Stores

variable {W : Type}

/-- Every call is made to both. -/
def step [World W] (s : Stores W) : StoreEvent W → Stores W
  | .call c =>
    let (_, file, w) := s.file.perform s.world c
    let (_, memory, w) := s.memory.perform w c
    ⟨file, memory, w⟩
  | .reopen => { s with file := s.file.reopened }
  | .meanwhile change => { s with world := change s.world }

def initial (root : FilePath) (w : W) : Stores W := ⟨.file root, .memory .empty, w⟩

/-- One store is in the document, the other in memory, and both have the entries of `x`. -/
structure InStep [World W] (root : FilePath) (s : Stores W) (x : ArtifactIndex) : Prop where
  file : s.file.reopened = .file root
  memory : s.memory.reopened = .memory .empty
  fileReads : s.file.Reads s.world x
  memoryReads : s.memory.Reads s.world x
  tidy : x.Tidy

theorem InStep.file_eq [World W] {root : FilePath} {s : Stores W} {x : ArtifactIndex}
    (h : InStep root s x) : s.file = .file root := by
  have hfile := h.file
  cases hs : s.file <;> rw [hs] at hfile
  · cases hfile
  · exact hfile

theorem InStep.memory_eq [World W] {root : FilePath} {s : Stores W} {x : ArtifactIndex}
    (h : InStep root s x) : ∃ y, s.memory = .memory y ∧ x.Alike y := by
  obtain ⟨y, hy, hxy⟩ := h.memoryReads
  have hmemory := h.memory
  cases hs : s.memory <;> rw [hs] at hmemory hy
  · obtain rfl := Except.ok.inj hy
    exact ⟨_, rfl, hxy⟩
  · cases hmemory

end Stores

/-- The index after the calls among these events. -/
def ArtifactIndex.after {W : Type} (x : ArtifactIndex) : StoreEvent W → ArtifactIndex
  | .call c => x.next c
  | .reopen | .meanwhile _ => x

def Holdings.after {W : Type} (h : Holdings) : StoreEvent W → Holdings
  | .call c => h.next c
  | .reopen | .meanwhile _ => h

section

variable {W : Type} [Workshop W] {root : FilePath}

theorem Stores.inStep_initial {w : W}
    (hw : World.hasFile w (ArtifactStore.documentPath root) = false) :
    InStep root (Stores.initial root w) .empty := by
  refine ⟨rfl, rfl, ⟨.empty, ?_, ArtifactIndex.Alike.refl _⟩,
    ⟨.empty, rfl, ArtifactIndex.Alike.refl _⟩, fun p hs hp => ?_⟩
  · show (Document.load w _ _).map _ = _
    rw [Document.load, hw]
    rfl
  · rw [show (ArtifactIndex.empty).headers[p]? = none from rfl] at hp
    cases hp

variable [LawfulWorkshop W]

theorem Stores.InStep.step {s : Stores W} {x : ArtifactIndex} (h : InStep root s x)
    {e : StoreEvent W} (he : e.Undisturbed root) : InStep root (s.step e) (x.after e) := by
  cases e with
  | call c =>
    have hfile := h.fileReads.perform h.tidy c
    have hspared : s.memory.Reads (s.file.perform s.world c).2.2 x := h.memoryReads.congr (by
      obtain ⟨y, hy, _⟩ := h.memory_eq
      rw [hy]
      exact fun p hp => absurd hp List.not_mem_nil)
    have hmemory := hspared.perform h.tidy c
    refine ⟨hfile.reopened.trans h.file, hmemory.reopened.trans h.memory, ?_, hmemory.reads,
      h.tidy.next c⟩
    -- a store in memory writes no file
    refine hfile.reads.congr fun p _ => ?_
    have hnone : s.memory.documents = [] := by
      rw [← s.memory.documents_reopened, h.memory]
      rfl
    have hquiet : ∀ q ∈ s.memory.documents, ¬ q.same p := by
      rw [hnone]
      exact fun q hq => absurd hq List.not_mem_nil
    exact ⟨hmemory.spares.hasFile hquiet, hmemory.spares.readText hquiet⟩
  | reopen =>
    refine ⟨?_, h.memory, ?_, h.memoryReads, h.tidy⟩
    · rw [Stores.step, h.file]
      rfl
    · have hreads := h.fileReads
      rw [h.file_eq] at hreads
      rw [Stores.step, h.file]
      exact hreads
  | meanwhile change =>
    refine ⟨h.file, h.memory, h.fileReads.congr fun p hp => ?_, h.memoryReads.congr fun p hp => ?_,
      h.tidy⟩
    · rw [h.file_eq] at hp
      rw [List.mem_singleton.mp hp]
      exact he s.world
    · obtain ⟨y, hy, _⟩ := h.memory_eq
      rw [hy] at hp
      exact absurd hp List.not_mem_nil

theorem Stores.InStep.run {s : Stores W} {x : ArtifactIndex} (h : InStep root s x)
    {es : List (StoreEvent W)} (hes : ∀ e ∈ es, e.Undisturbed root) :
    InStep root (es.foldl Stores.step s) (es.foldl ArtifactIndex.after x) := by
  induction es generalizing s x with
  | nil => exact h
  | cons e es ih =>
    rw [List.forall_mem_cons] at hes
    exact ih (h.step hes.1) hes.2

omit [Workshop W] [LawfulWorkshop W] in
theorem ArtifactIndex.holdings_run (x : ArtifactIndex) (es : List (StoreEvent W)) :
    (es.foldl ArtifactIndex.after x).holdings = es.foldl Holdings.after x.holdings := by
  induction es generalizing x with
  | nil => rfl
  | cons e es ih =>
    rw [List.foldl_cons, List.foldl_cons, ih]
    cases e with
    | call c => exact congrArg (es.foldl Holdings.after) (x.holdings_next c)
    | reopen | meanwhile => rfl

/-- Whatever was called before, both stores give the answer of the two maps to the next call, and
both have the same entries, none without a header. The call changes the entries it names and no
others. -/
theorem stores_agree {w : W} (hw : World.hasFile w (ArtifactStore.documentPath root) = false)
    {es : List (StoreEvent W)} (hes : ∀ e ∈ es, e.Undisturbed root) (c : ArtifactCall) :
    let s := es.foldl Stores.step (Stores.initial root w)
    let h := es.foldl Holdings.after .empty
    (s.file.perform s.world c).1 = .ok (h.answer c) ∧
    (s.memory.perform s.world c).1 = .ok (h.answer c) ∧
    (∃ x y, s.file.index s.world = .ok x ∧ s.memory = .memory y ∧ x.Alike y ∧
      x.Alike (es.foldl ArtifactIndex.after .empty) ∧ x.holdings = h ∧ x.Tidy) ∧
    (∃ x, (s.step (.call c)).file.index (s.step (.call c)).world = .ok x ∧
      x.holdings = h.next c) ∧
    (∀ print, ¬ c.WritesArtifact print → (h.next c).artifact print = h.artifact print) ∧
    ∀ part scope, ¬ c.WritesHeader part scope →
      (h.next c).header part scope = h.header part scope := by
  intro s h
  have hstep : s.InStep root (es.foldl ArtifactIndex.after .empty) :=
    (Stores.inStep_initial hw).run hes
  have hh : (es.foldl ArtifactIndex.after .empty).holdings = h := ArtifactIndex.holdings_run _ es
  obtain ⟨x, hx, hzx⟩ := hstep.fileReads
  obtain ⟨y, hy, hzy⟩ := hstep.memory_eq
  obtain ⟨x', hx', hzx'⟩ := (hstep.step (e := .call c) trivial).fileReads
  refine ⟨hh ▸ (hstep.fileReads.perform hstep.tidy c).answer,
    hh ▸ (hstep.memoryReads.perform hstep.tidy c).answer,
    ⟨x, y, hx, hy, hzx.symm.trans hzy, hzx.symm, hzx.holdings.trans hh, hzx.tidy hstep.tidy⟩,
    ⟨x', hx', ?_⟩, fun print hc => Holdings.artifact_next hc,
    fun part scope hc => Holdings.header_next hc⟩
  rw [hzx'.holdings, ← hh]
  exact ArtifactIndex.holdings_next _ c

end

/-- A part named twice loses its header once, and stores made anew remember the other part, with
another file written in between. -/
theorem stores_agree_reopened :
    let es : List (StoreEvent WritingBench) :=
      [.call (.insertHeader ["a", "a", "b"] .system ⟨"/s"⟩), .reopen,
        .meanwhile fun b => (World.writeText b ⟨"/other"⟩ "text").2,
        .call (.deleteHeader ["a", "c", "a"] .system), .reopen]
    let s := es.foldl Stores.step (Stores.initial ⟨"/state"⟩ ⟨Bench.empty, rfl⟩)
    (s.file.perform s.world (.header "b" .system)).1 = .ok (some ⟨"/s"⟩) ∧
      (s.memory.perform s.world (.header "b" .system)).1 = .ok (some ⟨"/s"⟩) ∧
      ∃ x, s.file.index s.world = .ok x ∧ x.header? "a" .system = none ∧ x.Tidy := by
  intro es s
  have hother : ∀ p ∈ [(⟨"/other"⟩ : FilePath)],
      ¬ p.same (ArtifactStore.documentPath ⟨"/state"⟩) := by decide
  have hes : ∀ e ∈ es, e.Undisturbed ⟨"/state"⟩ := by
    simp only [es, List.forall_mem_cons, List.not_mem_nil, false_implies, implies_true, and_true]
    refine ⟨trivial, trivial, fun b => ?_, trivial, trivial⟩
    have hspares := LawfulWorkshop.write_spares b ⟨"/other"⟩ "text"
    exact ⟨hspares.hasFile hother, hspares.readText hother⟩
  have hfresh : World.hasFile (⟨Bench.empty, rfl⟩ : WritingBench)
      (ArtifactStore.documentPath ⟨"/state"⟩) = false := rfl
  obtain ⟨hfile, hmemory, ⟨x, _, hx, _, _, _, hholds, htidy⟩, _⟩ :=
    stores_agree hfresh hes (.header "b" .system)
  exact ⟨hfile, hmemory, x, hx, congrFun (congrFun (congrArg Holdings.header hholds) "a") .system,
    htidy⟩

end PrecompiledHeaders
